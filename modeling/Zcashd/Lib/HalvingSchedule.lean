import Mathlib

/-!
A reward that is halved every `interval` units, without rounding. What has been handed out
and what is still to come add up to the whole.
-/
namespace Zcashd.Lib.HalvingSchedule

open Finset

variable (interval : ℕ) (reward : ℚ)

/-- The reward of unit `j`. -/
def share (j : ℕ) : ℚ := reward / 2 ^ (j / interval)

/-- What the units below `u` hand out in the periods that `p` selects. -/
def emitted (p : ℕ → Prop) [DecidablePred p] (u : ℕ) : ℚ :=
  ∑ j ∈ range u with p (j / interval), share interval reward j

/-- What is handed out from unit `u` on: the rest of its period, and as much as a whole period
again for all the later ones. -/
def remaining (u : ℕ) : ℚ := share interval reward u * (2 * interval - (u % interval : ℕ))

variable {interval : ℕ} {reward : ℚ}

theorem share_nonneg (pos : 0 ≤ reward) (j : ℕ) : 0 ≤ share interval reward j :=
  div_nonneg pos (pow_nonneg (by norm_num) _)

theorem emitted_succ (p : ℕ → Prop) [DecidablePred p] (u : ℕ) : emitted interval reward p (u + 1) =
      emitted interval reward p u + if p (u / interval) then share interval reward u else 0 := by
  unfold emitted
  rw [sum_filter, sum_filter, sum_range_succ]

theorem remaining_succ (reward : ℚ) (pos : 0 < interval) (u : ℕ) :
    remaining interval reward u = share interval reward u + remaining interval reward (u + 1) := by
  unfold remaining share
  have split := Nat.div_add_mod u interval
  have low := Nat.mod_lt u pos
  by_cases last : u % interval + 1 = interval
  · -- the next unit is the first one of the next period
    have next : u + 1 = interval * (u / interval + 1) := by
      rw [Nat.mul_add, Nat.mul_one]
      omega
    have quotient : (u + 1) / interval = u / interval + 1 := by
      rw [next, Nat.mul_div_cancel_left _ pos]
    have rest : (u + 1) % interval = 0 := by rw [next, Nat.mul_mod_right]
    have size : ((u % interval : ℕ) : ℚ) = interval - 1 := by
      rw [eq_sub_iff_add_eq]
      exact_mod_cast last
    rw [quotient, rest, size, pow_succ]
    field_simp
    push_cast
    ring
  · have inside : u % interval + 1 < interval := by omega
    have next : u + 1 = (u % interval + 1) + interval * (u / interval) := by omega
    have quotient : (u + 1) / interval = u / interval := by
      rw [next, Nat.add_mul_div_left _ _ pos, Nat.div_eq_of_lt inside, Nat.zero_add]
    have rest : (u + 1) % interval = u % interval + 1 := by
      rw [next, Nat.add_mul_mod_self_left, Nat.mod_eq_of_lt inside]
    rw [quotient, rest]
    push_cast
    ring

/-- Nothing is lost between the periods. -/
theorem emitted_add_remaining (reward : ℚ) (pos : 0 < interval) (u : ℕ) :
    emitted interval reward (fun _ => True) u + remaining interval reward u =
      2 * interval * reward := by
  induction u with
  | zero =>
    simp [emitted, remaining, share]
    ring
  | succ u ih =>
    have step := remaining_succ reward pos u
    rw [emitted_succ, if_pos trivial]
    linarith

/-- All periods together hand out less than two periods at the first reward. -/
theorem emitted_le (pos : 0 < interval) (nonneg : 0 ≤ reward) (u : ℕ) :
    emitted interval reward (fun _ => True) u ≤ 2 * interval * reward := by
  have total := emitted_add_remaining reward pos u
  have rest : 0 ≤ remaining interval reward u := by
    apply mul_nonneg (share_nonneg nonneg u)
    have low : ((u % interval : ℕ) : ℚ) ≤ interval := by exact_mod_cast (Nat.mod_lt u pos).le
    linarith
  linarith

/-- A period that is over has handed out its share `interval` times. -/
theorem emitted_period (pos : 0 < interval) {k u : ℕ} (finished : interval * (k + 1) ≤ u) :
    emitted interval reward (· = k) u = interval * reward / 2 ^ k := by
  rw [Nat.mul_add, Nat.mul_one] at finished
  have units : (range u).filter (fun j => j / interval = k) =
      Ico (interval * k) (interval * k + interval) := by
    ext j
    rw [mem_filter, mem_range, mem_Ico, Nat.div_eq_iff pos, Nat.mul_comm k]
    omega
  unfold emitted
  rw [units, sum_congr rfl (g := fun _ => reward / 2 ^ k)]
  · rw [sum_const, Nat.card_Ico, nsmul_eq_mul, Nat.add_sub_cancel_left]
    ring
  · intro j mem
    have quotient : j / interval = k := by
      have inside := units ▸ mem
      exact (mem_filter.mp inside).2
    rw [share, quotient]

end Zcashd.Lib.HalvingSchedule
