import Zcashd.Lib.HalvingSchedule
import Zcashd.Source.Consensus

/-!
# Block subsidies on the main network

A block before Blossom takes the place of two blocks after it. Measured in blocks of the later
spacing, and counted from the middle of the slow start, the heights become a schedule with one
halving interval wherever Blossom activates; each subsidy is the reward of the units its block
covers, rounded down.
-/
namespace Zcashd.Abstract.Issuance

open Finset Lib.HalvingSchedule Source Source.ConsensusParams Option Nat

/-- The main network with Blossom not before the end of the slow start. -/
structure LateBlossom (blossom : Option Nat) : Prop where
  late : ∀ activation ∈ blossom, (main blossom).nSubsidySlowStartInterval ≤ activation

/-- `GetBlockSubsidy` where its assertion holds. -/
def subsidy (params : ConsensusParams) (nHeight : Nat) : CAmount :=
  (params.getBlockSubsidy nHeight).getD 0

variable {blossom : Option Nat}

/-- `NetworkUpgradeActive` for Blossom. -/
abbrev blossomActive (blossom : Option Nat) (nHeight : Nat) : Bool :=
  (main blossom).networkUpgradeActive nHeight .UPGRADE_BLOSSOM

/-- How many units the block at a height covers. -/
def width (blossom : Option Nat) (nHeight : Nat) : Nat :=
  if blossomActive blossom nHeight then 1 else 2

/-- The first unit of the block at a height. -/
def unitOf (blossom : Option Nat) (nHeight : Nat) : Nat :=
  if blossomActive blossom nHeight then 2 * (blossom.getD 0 - 10000) + (nHeight - blossom.getD 0)
  else 2 * (nHeight - 10000)

variable {nHeight : Nat}

theorem blossomActive_iff :
    blossomActive blossom nHeight = true ↔
    ∃ activation, blossom = some activation ∧ activation ≤ nHeight := by
  cases blossom with
  | none => simp [blossomActive, networkUpgradeActive, main]
  | some _ => simp [blossomActive, networkUpgradeActive, main]

theorem unitOf_succ (late : LateBlossom blossom) (started : 20000 ≤ nHeight) :
    unitOf blossom (nHeight + 1) = unitOf blossom nHeight + width blossom nHeight := by
  unfold unitOf width
  by_cases active : blossomActive blossom nHeight = true
  · obtain ⟨activation, rfl, _⟩ := blossomActive_iff.mp active
    have next : blossomActive (some activation) (nHeight + 1) = true :=
      blossomActive_iff.mpr ⟨activation, rfl, by omega⟩
    simp only [active, next, if_true, getD_some]
    omega
  · rw [if_neg active, if_neg active]
    by_cases next : blossomActive blossom (nHeight + 1) = true
    · -- the block Blossom activates with
      obtain ⟨activation, rfl, below⟩ := blossomActive_iff.mp next
      have same : activation = nHeight + 1 := by
        apply Nat.le_antisymm below
        apply Nat.lt_of_not_le
        intro earlier
        exact active (blossomActive_iff.mpr ⟨activation, rfl, earlier⟩)
      rw [if_pos next, getD_some, same]
      omega
    · rw [if_neg next]
      omega

/-- The units of one block are in one period: a block with two of them starts at an even one. -/
theorem unit_period (blossom : Option Nat) (nHeight : Nat) {i : Nat}
    (inside : i < width blossom nHeight) :
    (unitOf blossom nHeight + i) / 1680000 = unitOf blossom nHeight / 1680000 := by
  unfold width at inside
  unfold unitOf
  split at inside
  · have first : i = 0 := by omega
    rw [first, add_zero]
  · rename_i inactive
    rw [if_neg inactive]
    omega

section

variable (late : LateBlossom blossom)
include late

theorem halving_eq (started : 20000 ≤ nHeight) :
    (main blossom).halving nHeight = (unitOf blossom nHeight / 1680000 : Nat) := by
  unfold halving unitOf
  by_cases active : blossomActive blossom nHeight = true
  · obtain ⟨activation, rfl, _⟩ := blossomActive_iff.mp active
    have after : 20000 ≤ activation := late.late activation rfl
    rw [if_pos active, if_pos active]
    simp only [main, subsidySlowStartShift, BLOSSOM_POW_TARGET_SPACING_RATIO, getD_some]
    rw [Int.tdiv_eq_ediv_of_nonneg (by omega)]
    omega
  · rw [if_neg active, if_neg active]
    simp only [main, subsidySlowStartShift]
    rw [Int.tdiv_eq_ediv_of_nonneg (by omega)]
    omega

theorem halving_slowStart (early : nHeight < 20000) : (main blossom).halving nHeight = 0 := by
  have inactive : ¬ blossomActive blossom nHeight = true := by
    intro active
    obtain ⟨activation, rfl, _⟩ := blossomActive_iff.mp active
    have after : 20000 ≤ activation := late.late activation rfl
    omega
  unfold halving
  rw [if_neg inactive]
  simp only [main, subsidySlowStartShift]
  rcases lt_or_ge nHeight 10000 with _ | _
  · rw [show ((nHeight : Int) - ((20000 / 2 : Nat) : Int)) =
      -((10000 - nHeight : Nat) : Int) by omega, Int.neg_tdiv,
      Int.tdiv_eq_ediv_of_nonneg (by omega)]
    omega
  · rw [Int.tdiv_eq_ediv_of_nonneg (by omega)]
    omega

/-- After the slow start: the reward of the block's units, rounded down. From 64 halvings on the
source returns 0, as does the division. -/
theorem subsidy_eq (started : 20000 ≤ nHeight) : (main blossom).getBlockSubsidy nHeight =
      some ((625000000 * width blossom nHeight / 2 ^ (unitOf blossom nHeight / 1680000) : Nat) :
    Int) := by
  have afterHalf : ¬ nHeight < (main blossom).nSubsidySlowStartInterval / 2 := by
    simp only [main]
    omega
  have afterAll : ¬ nHeight < (main blossom).nSubsidySlowStartInterval := not_lt.mpr started
  have asserted : (main blossom).subsidySlowStartShift < nHeight := by
    simp only [main, subsidySlowStartShift]
    omega
  simp only [getBlockSubsidy, if_neg afterHalf, if_neg afterAll, if_pos asserted,
    halving_eq late started]
  generalize unitOf blossom nHeight / 1680000 = halvings
  by_cases many : 64 ≤ halvings
  · have small : 625000000 * width blossom nHeight < 2 ^ halvings := by
      calc 625000000 * width blossom nHeight ≤ 625000000 * 2 := by
            apply Nat.mul_le_mul_left
            unfold width
            split <;> omega
        _ < 2 ^ 64 := by norm_num
        _ ≤ 2 ^ halvings := Nat.pow_le_pow_right (by decide) many
    rw [if_pos (by exact_mod_cast many), Nat.div_eq_of_lt small, Nat.cast_zero]
  · rw [if_neg (by exact_mod_cast many)]
    unfold width blossomActive
    have half : MAX_BLOCK_SUBSIDY / BLOSSOM_POW_TARGET_SPACING_RATIO = 625000000 := by decide
    rw [half]
    simp only [Int.shiftRight_eq_div_pow, Int.toNat_natCast, MAX_BLOCK_SUBSIDY]
    split <;> norm_num

end

/-! The slow start -/

theorem subsidy_slowStart (early : nHeight < 20000) : (main blossom).getBlockSubsidy nHeight =
      some (62500 * (if nHeight < 10000 then (nHeight : Int) else nHeight + 1)) := by
  unfold getBlockSubsidy
  have interval : (main blossom).nSubsidySlowStartInterval = 20000 := rfl
  simp only [interval]
  by_cases low : nHeight < 10000
  · rw [if_pos low, if_pos low]
    rfl
  · rw [if_neg low, if_neg low, if_pos early]
    rfl

/-- The ramp hands out as much as half as many blocks with the full subsidy. -/
theorem sum_slowStart (blossom : Option Nat) :
    ∑ nHeight ∈ range 20000, subsidy (main blossom) nHeight = 10000 * MAX_BLOCK_SUBSIDY := by
  have lower : ∀ n ≤ 10000, 2 * ∑ nHeight ∈ range n,
      subsidy (main blossom) nHeight = 62500 * (n * (n - 1)) := by
    intro n
    induction n with
    | zero => simp
    | succ n ih =>
      intro _
      have height : (main blossom).getBlockSubsidy n = some _ := subsidy_slowStart (by omega)
      rw [if_pos (by omega)] at height
      rw [sum_range_succ, mul_add, ih (by omega), subsidy, height, getD_some]
      push_cast
      ring
  have upper : ∀ n ≤ 10000, 2 * ∑ nHeight ∈ range (10000 + n), subsidy (main blossom) nHeight =
      62500 * ((10000 + n) * (10000 + n + 1) - 20000) := by
    intro n
    induction n with
    | zero =>
      intro _
      rw [lower 10000 (by omega)]
      norm_num
    | succ n ih =>
      intro _
      have height : (main blossom).getBlockSubsidy (10000 + n) = some _ :=
        subsidy_slowStart (by omega)
      rw [if_neg (by omega)] at height
      rw [← add_assoc, sum_range_succ, mul_add, ih (by omega), subsidy, height, getD_some]
      push_cast
      ring
  have total := upper 10000 (by omega)
  rw [MAX_BLOCK_SUBSIDY]
  norm_num at total
  linarith

/-! Handed out and rounded away -/

/-- What rounding takes from the block at a height. -/
def rounding (blossom : Option Nat) (nHeight : Nat) : ℚ :=
  if nHeight < 20000 then 0
  else (625000000 * width blossom nHeight % 2 ^ (unitOf blossom nHeight / 1680000) : Nat) /
    2 ^ (unitOf blossom nHeight / 1680000)

theorem rounding_nonneg (blossom : Option Nat) (nHeight : Nat) : 0 ≤ rounding blossom nHeight := by
  unfold rounding
  split
  · exact le_refl 0
  · positivity

theorem rounding_lt_one (blossom : Option Nat) (nHeight : Nat) : rounding blossom nHeight < 1 := by
  unfold rounding
  split
  · norm_num
  · rw [div_lt_one (by positivity)]
    exact_mod_cast mod_lt _ (by positivity)

variable (late : LateBlossom blossom)
include late

/-- The part of the unrounded schedule that one block covers. -/
theorem emitted_block (started : 20000 ≤ nHeight) (p : ℕ → Prop)
    [DecidablePred p] : emitted 1680000 625000000 p (unitOf blossom (nHeight + 1)) =
      emitted 1680000 625000000 p (unitOf blossom nHeight) + if p
        (unitOf blossom nHeight / 1680000) then
          (subsidy (main blossom) nHeight : ℚ) + rounding blossom nHeight
        else 0 := by
  have exact : (subsidy (main blossom) nHeight : ℚ) + rounding blossom nHeight =
      width blossom nHeight * share 1680000 625000000 (unitOf blossom nHeight) := by
    rw [subsidy, subsidy_eq late started, rounding, if_neg (by omega), share, getD_some,
      Int.cast_natCast]
    generalize unitOf blossom nHeight / 1680000 = halvings
    generalize width blossom nHeight = units
    have split : ((625000000 * units : Nat) : ℚ) =
        2 ^ halvings * (625000000 * units / 2 ^ halvings : Nat) +
          (625000000 * units % 2 ^ halvings : Nat) := by
      exact_mod_cast (div_add_mod (625000000 * units) (2 ^ halvings)).symm
    field_simp
    push_cast at split ⊢
    linarith
  have shares : ∀ i < width blossom nHeight,
      share 1680000 625000000 (unitOf blossom nHeight + i) =
        share 1680000 625000000 (unitOf blossom nHeight) := by
    intro i inside
    rw [share, share, unit_period blossom nHeight inside]
  rw [unitOf_succ late started, exact]
  have cases : width blossom nHeight = 1 ∨ width blossom nHeight = 2 := by
    unfold width
    split
    · exact Or.inl rfl
    · exact Or.inr rfl
  rcases cases with one | two
  · rw [one, emitted_succ]
    simp
  · have second := shares 1 (by omega)
    have period := unit_period blossom nHeight (i := 1) (by omega)
    rw [two, emitted_succ, emitted_succ, second, period]
    split
    · push_cast
      ring
    · ring

variable (p : ℤ → Prop)

/-- The slow start takes the place of the units before its end. -/
theorem emitted_slowStart [DecidablePred p] :
    emitted 1680000 625000000 (fun k => p k) (unitOf blossom 20000) =
      ∑ nHeight ∈ range 20000 with p ((main blossom).halving nHeight),
        ((subsidy (main blossom) nHeight : ℚ) + rounding blossom nHeight) := by
  have units : unitOf blossom 20000 = 20000 := by
    unfold unitOf
    split
    · rename_i active
      obtain ⟨activation, rfl, _⟩ := blossomActive_iff.mp active
      have after : 20000 ≤ activation := late.late activation rfl
      rw [getD_some]
      omega
    · rfl
  have schedule : emitted 1680000 625000000 (fun k => p k) 20000 = ∑ j ∈ range 20000, if p 0 then
      625000000
    else 0 := by
    rw [emitted, sum_filter]
    apply sum_congr rfl
    intro j inside
    have first : j / 1680000 = 0 := div_eq_of_lt (by have := mem_range.mp inside; omega)
    rw [share, first]
    simp
  have handedOut : ∑ nHeight ∈ range 20000 with p ((main blossom).halving nHeight),
      ((subsidy (main blossom) nHeight : ℚ) + rounding blossom nHeight) =
        ∑ nHeight ∈ range 20000, if p 0 then (subsidy (main blossom) nHeight : ℚ) else 0 := by
    rw [sum_filter]
    apply sum_congr rfl
    intro _ inside
    have early := mem_range.mp inside
    rw [halving_slowStart late early, rounding, if_pos early, add_zero]
  have total : ∑ nHeight ∈ range 20000,
      (subsidy (main blossom) nHeight : ℚ) = 10000 * 1250000000 := by
    rw [← Int.cast_sum, sum_slowStart, MAX_BLOCK_SUBSIDY]
    norm_num
  rw [units, schedule, handedOut]
  split
  · rw [total, sum_const, card_range]
    norm_num
  · rw [sum_const_zero]

/-- At each height: the subsidies so far and what they lost to rounding are the schedule. -/
theorem emitted_eq [DecidablePred p] {n : Nat} (started : 20000 ≤ n) :
    emitted 1680000 625000000 (fun k => p k) (unitOf blossom n) =
      ∑ nHeight ∈ range n with p ((main blossom).halving nHeight),
        ((subsidy (main blossom) nHeight : ℚ) + rounding blossom nHeight) := by
  induction n, started using le_induction with
  | base => exact emitted_slowStart late p
  | succ n started ih =>
    rw [emitted_block late started, ih, sum_filter, sum_filter, sum_range_succ,
      halving_eq late started]

/-! What follows for single heights -/

theorem subsidy_nonneg (nHeight : Nat) :
    ∃ value, (main blossom).getBlockSubsidy nHeight = some value ∧ 0 ≤ value ∧
      value ≤ MAX_BLOCK_SUBSIDY := by
  rcases lt_or_ge nHeight 20000 with early | started
  · refine ⟨_, subsidy_slowStart early, ?_⟩
    change (0 : Int) ≤ _ ∧ _ ≤ (1250000000 : Int)
    split <;> omega
  · refine ⟨_, subsidy_eq late started, Int.natCast_nonneg _, ?_⟩
    have units : width blossom nHeight ≤ 2 := by
      unfold width
      split <;> omega
    have quotient :=
      div_le_self (625000000 * width blossom nHeight) (2 ^ (unitOf blossom nHeight / 1680000))
    change _ ≤ (1250000000 : Int)
    omega

/-- From the last block of the slow start on, no block has more than the one before. -/
theorem subsidy_step (started : 19999 ≤ nHeight) :
    subsidy (main blossom) (nHeight + 1) ≤ subsidy (main blossom) nHeight := by
  rcases eq_or_lt_of_le started with last | _
  · obtain ⟨_, found, -, bound⟩ := subsidy_nonneg late (nHeight + 1)
    have full : (main blossom).getBlockSubsidy nHeight = some _ := subsidy_slowStart (by omega)
    rw [if_neg (by omega), ← last] at full
    rw [subsidy, subsidy, found, ← last, full]
    simpa [MAX_BLOCK_SUBSIDY] using bound
  · have units := unitOf_succ late (show 20000 ≤ nHeight by omega)
    have narrower : width blossom (nHeight + 1) ≤ width blossom nHeight := by
      unfold width
      by_cases active : blossomActive blossom nHeight = true
      · obtain ⟨activation, rfl, _⟩ := blossomActive_iff.mp active
        rw [if_pos active, if_pos (blossomActive_iff.mpr ⟨activation, rfl, by omega⟩)]
      · rw [if_neg active]
        split <;> omega
    have halvings : unitOf blossom nHeight / 1680000 ≤ unitOf blossom (nHeight + 1) / 1680000 := by
      apply Nat.div_le_div_right
      omega
    rw [subsidy, subsidy, subsidy_eq late (by omega), subsidy_eq late (by omega)]
    simp only [getD_some]
    have divided := Nat.div_le_div (Nat.mul_le_mul_left 625000000 narrower)
      (Nat.pow_le_pow_right (by decide : 0 < 2) halvings) (by positivity)
    exact_mod_cast divided

end Zcashd.Abstract.Issuance
