import Zcashd.Abstract.Issuance

/-!
# The issuance of the main network

`subsidy_schedule`: whatever height Blossom activates at after the slow start, the subsidies
stay below the money range in total and one by one, never grow after the slow start, and give
each halving period the same total but for what integer division drops.
-/
namespace Zcashd.Guarantees.BlockRewards

open Finset Source Source.ConsensusParams Abstract.Issuance Lib.HalvingSchedule

variable {blossom : Option Nat}

/-- The unrounded total of a halving period: the first one has a whole interval of full
subsidies. -/
def periodTotal (params : ConsensusParams) (halvings : Nat) : ℚ :=
  params.nPreBlossomSubsidyHalvingInterval * MAX_BLOCK_SUBSIDY / 2 ^ halvings

/-- The heights below `n` that are in a halving period. -/
def period (params : ConsensusParams) (n halvings : Nat) : Finset Nat :=
  {nHeight ∈ range n | params.halving nHeight = halvings}

section

variable (late : LateBlossom blossom)
include late

/-- All subsidies together are below the schedule's limit. -/
theorem sum_le_maxMoney (n : Nat) :
    ∑ nHeight ∈ range n, subsidy (main blossom) nHeight ≤ MAX_MONEY := by
  have nonneg : ∀ nHeight, 0 ≤ subsidy (main blossom) nHeight := by
    intro nHeight
    obtain ⟨_, hit, pos, -⟩ := subsidy_nonneg late nHeight
    rw [subsidy, hit]
    exact pos
  have more : ∑ nHeight ∈ range n, subsidy (main blossom) nHeight ≤
      ∑ nHeight ∈ range (n + 20000), subsidy (main blossom) nHeight := by
    apply sum_le_sum_of_subset_of_nonneg
    · exact range_mono (Nat.le_add_right n 20000)
    · intro nHeight _ _
      exact nonneg nHeight
  have schedule := emitted_eq late (fun _ => True) (n := n + 20000) (by omega)
  have limit : emitted 1680000 625000000 (fun _ => True) (unitOf blossom (n + 20000)) ≤
      2 * (1680000 : Nat) * 625000000 :=
    emitted_le (by norm_num) (by norm_num) _
  have lost : (0 : ℚ) ≤ ∑ nHeight ∈ range (n + 20000), rounding blossom nHeight :=
    sum_nonneg (fun nHeight _ => rounding_nonneg blossom nHeight)
  rw [schedule, filter_true_of_mem (fun _ _ => trivial), sum_add_distrib, ← Int.cast_sum] at limit
  have total : ((∑ nHeight ∈ range (n + 20000), subsidy (main blossom) nHeight : ℤ) : ℚ) ≤
      (2100000000000000 : ℤ) := by
    push_cast at limit lost ⊢
    linarith
  exact more.trans (Int.cast_le.mp total)

/-- A period that is over: its subsidies and what they lost to rounding. -/
theorem sum_period {n halvings : Nat} (finished : halvings < (main blossom).halving n) :
    ((∑ nHeight ∈ period (main blossom) n halvings, subsidy (main blossom) nHeight : ℤ) : ℚ) +
        ∑ nHeight ∈ period (main blossom) n halvings,
          rounding blossom nHeight = periodTotal (main blossom) halvings := by
  have started : 20000 ≤ n := by
    by_contra early
    rw [halving_slowStart late (by omega)] at finished
    omega
  have schedule := emitted_eq late (· = (halvings : ℤ)) started
  rw [halving_eq late started] at finished
  have units : 1680000 * (halvings + 1) ≤ unitOf blossom n := by omega
  have whole : emitted 1680000 625000000 (· = halvings) (unitOf blossom n) = _ :=
    emitted_period (by norm_num) units
  have same : emitted 1680000 625000000 (fun k => (k : ℤ) = (halvings : ℤ)) (unitOf blossom n) =
      emitted 1680000 625000000 (· = halvings) (unitOf blossom n) := by
    simp only [emitted, Int.natCast_inj]
  rw [same, whole, sum_add_distrib, ← Int.cast_sum] at schedule
  rw [period, ← schedule, periodTotal, MAX_BLOCK_SUBSIDY]
  simp only [main]
  norm_num

/-- Nothing is rounded in a period with a whole reward per unit. -/
theorem rounding_period {n halvings nHeight : Nat}
    (whole : (2 : Int) ^ (halvings + 1) ∣ MAX_BLOCK_SUBSIDY)
    (inside : nHeight ∈ period (main blossom) n halvings) :
    rounding blossom nHeight = 0 := by
  have halving := (mem_filter.mp inside).2
  unfold rounding
  split
  · rfl
  · rename_i started
    rw [halving_eq late (by omega)] at halving
    have same : unitOf blossom nHeight / 1680000 = halvings := by exact_mod_cast halving
    have divides : 2 ^ halvings ∣ 625000000 := by
      rw [MAX_BLOCK_SUBSIDY, pow_succ] at whole
      have half : (2 : Int) ^ halvings ∣ 625000000 :=
        (mul_dvd_mul_iff_right (by norm_num : (2 : Int) ≠ 0)).mp whole
      exact_mod_cast half
    rw [same, Nat.mod_eq_zero_of_dvd (divides.mul_right _)]
    simp

end

theorem subsidy_schedule (blossom : Option Nat)
    (late : ∀ activation ∈ blossom, (main blossom).nSubsidySlowStartInterval ≤ activation) :
    (∀ n, ∑ nHeight ∈ range n, subsidy (main blossom) nHeight ≤ MAX_MONEY) ∧
    (∀ nHeight, ∃ value, (main blossom).getBlockSubsidy nHeight = some value ∧
      moneyRange value = true) ∧
    (∀ low high, (main blossom).nSubsidySlowStartInterval ≤ low + 1 → low ≤ high →
      subsidy (main blossom) high ≤ subsidy (main blossom) low) ∧
    (∀ n halvings : Nat, halvings < (main blossom).halving n →
      let total := ∑ nHeight ∈ period (main blossom) n halvings, subsidy (main blossom) nHeight
      total ≤ periodTotal (main blossom) halvings ∧
      periodTotal (main blossom) halvings - (period (main blossom) n halvings).card ≤ total ∧
      (2 ^ (halvings + 1) ∣ MAX_BLOCK_SUBSIDY → total = periodTotal (main blossom) halvings)) := by
  have late : LateBlossom blossom := ⟨late⟩
  refine ⟨sum_le_maxMoney late, ?_, ?_, ?_⟩
  · intro nHeight
    obtain ⟨value, found, nonneg, bound⟩ := subsidy_nonneg late nHeight
    refine ⟨value, found, moneyRange_iff.mpr ⟨nonneg, ?_⟩⟩
    exact bound.trans (by decide)
  · intro _ high started above
    induction high, above using Nat.le_induction with
    | base => exact le_refl _
    | succ _ _ ih => exact (subsidy_step late (by simp only [main] at started; omega)).trans ih
  · intro n halvings finished _
    have account := sum_period late finished
    have lost : (0 : ℚ) ≤ ∑ nHeight ∈ period (main blossom) n halvings, rounding blossom nHeight :=
      sum_nonneg (fun nHeight _ => rounding_nonneg blossom nHeight)
    have less : ∑ nHeight ∈ period (main blossom) n halvings, rounding blossom nHeight ≤
        (period (main blossom) n halvings).card := by
      have each := sum_le_card_nsmul (period (main blossom) n halvings) (rounding blossom) 1
        (fun nHeight _ => (rounding_lt_one blossom nHeight).le)
      rwa [nsmul_eq_mul, mul_one] at each
    refine ⟨by linarith, by linarith, ?_⟩
    intro whole
    have none : ∑ nHeight ∈ period (main blossom) n halvings, rounding blossom nHeight = 0 :=
      sum_eq_zero (fun nHeight inside => rounding_period late whole inside)
    linarith

/-- The height Blossom did activate at. -/
theorem subsidy_schedule_deployed : (main (some 653600)).nSubsidySlowStartInterval ≤ 653600 ∧
    ∑ nHeight ∈ range 653600, subsidy (main (some 653600)) nHeight ≤ MAX_MONEY := by
  have late : ∀ activation ∈ some 653600, (main (some 653600)).nSubsidySlowStartInterval ≤
      activation := by
    intro _ deployed
    cases deployed
    decide
  exact ⟨late 653600 rfl, (subsidy_schedule (some 653600) late).1 653600⟩

end Zcashd.Guarantees.BlockRewards
